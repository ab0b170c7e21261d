import FortranTokens.Grammar.Basic
import FortranTokens.Proofs.BozReading

/-!
# Rules for every parser

A relation between parsers that relates every step to itself, and that every way of combining
parsers passes on, relates every grammar to itself (`Rules.run`).  `Rules` lists what has to be
shown of the relation; which steps keywords and literals are made of is followed here, once for all
such relations.  A property of parsers is a relation that does not look at the second one.

The reading modes are looked up in two places only: a binary, octal or hexadecimal constant asks for
strict conformance, a character of a quoted literal for escapes.  `StepRules` leaves the look at the
modes out, for relations between runs in different modes; what takes its place is that the modes of
the two runs agree in the switch that is asked for (`LooksUp`).

Two runs may stand at different offsets.  The relation may speak of an origin, a place at or before
the start of a run, with an offset in each of the two runs.  A parser that looks up where it stands,
and later reports a message there, has that place for the origin of what it goes on to do; so the
messages in the rules are all at the origin.

A search for a byte may fault, so that it is left out of the rules and asked for apart.  So are the
two kinds of literals under `StepRules`, each of them for the grammars that use it (`Grammar.Uses`).
-/

namespace FortranTokens

/-- The parts of a grammar that a relation may not allow for. -/
inductive Grammar.Part where
  /-- A search for a byte. -/
  | search (goal : UInt8)
  /-- A binary, octal or hexadecimal constant. -/
  | boz
  /-- A quoted literal, its body, or one character of it. -/
  | quoted

/-- The grammar has this part. -/
def Grammar.Uses (part : Grammar.Part) : {α : Type} → Grammar α → Prop
  | _, skipPast goal => part = .search goal
  | _, boz => part = .boz
  | _, quotedLiteral => part = .quoted
  | _, literalBody _ => part = .quoted
  | _, literalChar => part = .quoted
  | _, seqRight g h => g.Uses part ∨ h.Uses part
  | _, seqLeft g h => g.Uses part ∨ h.Uses part
  | _, pair g h => g.Uses part ∨ h.Uses part
  | _, orElse g h => g.Uses part ∨ h.Uses part
  | _, map _ g => g.Uses part
  | _, attempt g => g.Uses part
  | _, optional g => g.Uses part
  | _, many g => g.Uses part
  | _, many1 g => g.Uses part
  | _, skipMany g => g.Uses part
  | _, lookahead g => g.Uses part
  | _, notFollowedBy g => g.Uses part
  | _, sepBy1 g sep => g.Uses part ∨ sep.Uses part
  | _, _ => False

namespace Parser

/-- What has to be shown of a relation so that every parser that looks at no mode is related to
itself.  A place `o` has the offset `here o` in the first run and `here' o` in the second one. -/
structure StepRules {ι : Type} (here here' : ι → Nat)
    (P : {α : Type} → ι → Parser α → Parser α → Prop) : Prop where
  /-- The two runs agree which of two places is further on. -/
  lt_iff (c d : ι) : here c < here d ↔ here' c < here' d
  pure {α : Type} (o : ι) (a : α) : P o (Pure.pure a) (Pure.pure a)
  absent {α : Type} (o : ι) : P o (Parser.absent : Parser α) Parser.absent
  peek? (o : ι) : P o Parser.peek? Parser.peek?
  next? (o : ι) : P o Parser.next? Parser.next?
  readWhile (o : ι) (c : Char → Bool) : P o (Parser.readWhile c) (Parser.readWhile c)
  skipBlanks (o : ι) : P o Parser.skipBlanks Parser.skipBlanks
  endOfInput (o : ι) : P o Parser.endOfInput Parser.endOfInput
  say (o : ι) (k : Kind) : P o (Parser.say (here o) k) (Parser.say (here' o) k)
  /-- The place looked up is the origin of what follows. -/
  location_bind {α : Type} (o : ι) {f f' : Nat → Parser α}
    (hf : ∀ c, P c (f (here c)) (f' (here' c))) : P o (location >>= f) (location >>= f')
  bind {α β : Type} {o : ι} {p p' : Parser α} {f f' : α → Parser β} (hp : P o p p')
    (hf : ∀ a, P o (f a) (f' a)) : P o (p >>= f) (p' >>= f')
  orSay {α : Type} {o : ι} {p p' : Parser α} (k : Kind) (hp : P o p p') :
    P o (Parser.orSay (here o) k p) (Parser.orSay (here' o) k p')
  attempt {α : Type} {o : ι} {p p' : Parser α} (hp : P o p p') :
    P o (Parser.attempt p) (Parser.attempt p')
  optional {α : Type} {o : ι} {p p' : Parser α} (hp : P o p p') :
    P o (Parser.optional p) (Parser.optional p')
  lookahead {α : Type} {o : ι} {p p' : Parser α} (hp : P o p p') :
    P o (Parser.lookahead p) (Parser.lookahead p')
  notFollowedBy {α : Type} {o : ι} {p p' : Parser α} (hp : P o p p') :
    P o (Parser.notFollowedBy p) (Parser.notFollowedBy p')
  orElse {α : Type} {o : ι} {p p' q q' : Parser α} (hp : P o p p') (hq : P o q q') :
    P o (Parser.orElse p q) (Parser.orElse p' q')
  foldMany {α β : Type} {o : ι} {p p' : Parser α} (f : β → α → β) (b : β) (hp : P o p p') :
    P o (Parser.foldMany f b p) (Parser.foldMany f b p')
  separatedItems {α β : Type} {o : ι} {p p' : Parser α} {sep sep' : Parser β} (items : List α)
    (hp : P o p p') (hsep : P o sep sep') :
    P o (Parser.separatedItems p sep items) (Parser.separatedItems p' sep' items)
  /-- The loop over the characters of a quoted literal. -/
  closing {o : ι} (quote : Char) (read : List Char)
    (hchar : P o Parser.literalChar Parser.literalChar)
    (hquote : P o (Parser.optional (char quote)) (Parser.optional (char quote))) :
    P o (Parser.closing quote (here o) read) (Parser.closing quote (here' o) read)

/-- What has to be shown of a relation so that every parser is related to itself. -/
structure Rules {ι : Type} (here here' : ι → Nat)
    (P : {α : Type} → ι → Parser α → Parser α → Prop) : Prop extends
    StepRules here here' P where
  options (o : ι) : P o Parser.options Parser.options

/-- The rule for a part of a grammar. -/
def Allows {ι : Type} (P : {α : Type} → ι → Parser α → Parser α → Prop) : Grammar.Part → Prop
  | .search goal => ∀ o, P o (skipPast goal) (skipPast goal)
  | .boz => ∀ o, P o Parser.boz Parser.boz
  | .quoted => ∀ o, P o Parser.literalChar Parser.literalChar

/-- After a look at the modes, the two runs may go on as their modes say, as long as these are only
asked for the switch that `view` gives. -/
def LooksUp {ι : Type} (P : {α : Type} → ι → Parser α → Parser α → Prop)
    (view : Options → Bool) : Prop :=
  ∀ {α : Type} (o : ι) (f f' : Options → Parser α),
    (∀ m m', view m = view m' → P o (f m) (f' m')) → P o (options >>= f) (options >>= f')

variable {ι : Type} {here here' : ι → Nat} {P : {α : Type} → ι → Parser α → Parser α → Prop}
  {α β : Type} {o : ι}

theorem Rules.looksUp (h : Rules here here' P) (view : Options → Bool) : LooksUp P view :=
  fun o _ _ hf => h.bind (h.options o) fun m => hf m m rfl

variable (h : StepRules here here' P)

include h

/-! ## Small parsers -/

theorem StepRules.map {p p' : Parser α} (hp : P o p p') (f : α → β) : P o (f <$> p) (f <$> p') :=
  h.bind hp fun a => h.pure o (f a)

omit h in
theorem StepRules.ite (_ : StepRules here here' P) {c : Prop} [Decidable c] {p p' q q' : Parser α}
    (hp : P o p p') (hq : P o q q') : P o (if c then p else q) (if c then p' else q') := by
  split
  · exact hp
  · exact hq

theorem StepRules.failAt (o : ι) (k : Kind) :
    P o (Parser.failAt (here o) k : Parser α) (Parser.failAt (here' o) k) :=
  h.bind (h.say o k) fun _ => h.absent o

theorem StepRules.expecting {p p' : Parser α} (hp : ∀ o, P o p p') (o : ι) (k : Kind) :
    P o (Parser.expecting k p) (Parser.expecting k p') :=
  h.location_bind o fun c => h.orSay k (hp c)

theorem StepRules.next (o : ι) : P o Parser.next Parser.next :=
  h.bind (h.next? o) fun c => match c with
    | some c => h.pure o c
    | none => h.absent o

theorem StepRules.satisfy (o : ι) (c : Char → Bool) (k : Kind) :
    P o (Parser.satisfy c k) (Parser.satisfy c k) :=
  h.expecting (fun c => h.bind (h.next c) fun _ => h.ite (h.pure c _) (h.absent c)) o k

theorem StepRules.letter (o : ι) : P o Parser.letter Parser.letter := h.map (h.satisfy o _ _) _

theorem StepRules.space (o : ι) : P o Parser.space Parser.space :=
  h.bind (h.peek? o) fun ch => by
    split
    · exact h.bind (h.next? o) fun _ => h.pure o _
    · exact h.absent o

theorem StepRules.report (o : ι) (k : Kind) : P o (Parser.report k) (Parser.report k) :=
  h.location_bind o fun c => h.say c k

theorem StepRules.skipChars (o : ι) : ∀ n, P o (Parser.skipChars n) (Parser.skipChars n)
  | 0 => h.pure o _
  | n + 1 => h.bind (h.next? o) fun _ => StepRules.skipChars o n

theorem StepRules.consumeThenFail (o : ι) (n : Nat) (k : Kind) :
    P o (Parser.consumeThenFail n k : Parser α) (Parser.consumeThenFail n k) :=
  h.bind (h.skipChars o n) fun _ => h.location_bind o fun c => h.failAt c k

/-! ## Repetition -/

theorem StepRules.many {p p' : Parser α} (hp : P o p p') : P o (Parser.many p) (Parser.many p') :=
  h.map (h.foldMany _ _ hp) _

theorem StepRules.manyUpTo {p p' : Parser α} (hp : P o p p') :
    ∀ n, P o (Parser.manyUpTo n p) (Parser.manyUpTo n p')
  | 0 => h.pure o _
  | n + 1 => h.bind (h.optional hp) fun a => match a with
    | some _ => h.bind (StepRules.manyUpTo hp n) fun _ => h.pure o _
    | none => h.pure o _

theorem StepRules.many1 {p p' : Parser α} (hp : ∀ o, P o p p') (o : ι) :
    P o (Parser.many1 p) (Parser.many1 p') :=
  h.location_bind o fun c => h.bind (hp c) fun _ => h.location_bind c fun d => by
    simp only [h.lt_iff c d]
    exact h.ite (h.map (h.foldMany _ _ (hp d)) _) (h.pure d _)

theorem StepRules.sepBy1 {p p' : Parser α} {sep sep' : Parser β} (hp : P o p p')
    (hsep : P o sep sep') : P o (Parser.sepBy1 p sep) (Parser.sepBy1 p' sep') :=
  h.bind hp fun _ => h.map (h.separatedItems _ hp hsep) _

/-! ## Keywords -/

theorem StepRules.pastBlanks (o : ι) (got : Char) :
    P o (Parser.pastBlanks got) (Parser.pastBlanks got) :=
  h.ite (h.bind (h.skipBlanks o) fun _ => h.next o) (h.pure o _)

theorem StepRules.spelling (o : ι) :
    ∀ pending text, P o (Parser.spelling pending text) (Parser.spelling pending text)
  | _, [] => h.pure o _
  | pending, _ :: more => by
    have hgot : P o (pending.elim Parser.next Pure.pure) (pending.elim Parser.next Pure.pure) := by
      cases pending with
      | none => exact h.next o
      | some c => exact h.pure o c
    exact h.ite (StepRules.spelling o pending more) <| h.bind hgot fun got =>
      h.ite (h.bind (h.pastBlanks o got) fun c => StepRules.spelling o (some c) more) <|
        h.ite (StepRules.spelling o none more) (h.absent o)

theorem StepRules.keyword (o : ι) (text : String) :
    P o (Parser.keyword text) (Parser.keyword text) :=
  h.bind (h.skipBlanks o) fun _ =>
    h.bind (h.expecting (fun c => h.spelling c none _) o _) fun _ => h.skipBlanks o

/-! ## Numbers and Hollerith constants -/

theorem StepRules.digitString (o : ι) : P o Parser.digitString Parser.digitString :=
  h.location_bind o fun c => h.bind (h.attempt (h.satisfy c _ _)) fun _ =>
    h.bind (h.readWhile c _) fun _ =>
      h.ite (h.bind (h.say c _) fun _ => h.pure c _) (h.pure c _)

theorem StepRules.printables (o : ι) : ∀ n, P o (Parser.printables n) (Parser.printables n)
  | 0 => h.pure o _
  | n + 1 => h.bind (h.next o) fun _ =>
    h.ite (h.bind (StepRules.printables o n) fun _ => h.pure o _) (h.absent o)

theorem StepRules.hollerith (o : ι) : P o Parser.hollerith Parser.hollerith :=
  h.bind (h.skipBlanks o) fun _ => h.location_bind o fun c =>
    h.bind (h.digitString c) fun _ => h.bind (h.attempt (h.letter c)) fun _ =>
      h.ite (h.absent c) <| h.ite (h.failAt c _) <| h.ite (h.absent c) <|
        h.orSay _ (h.map (h.printables c _) _)

/-! ## Binary, octal and hexadecimal constants -/

/-- What is cut out of the source is what was read, so that there is no rule for cutting. -/
theorem StepRules.quotedDigits (o : ι) (committed : Bool) (quote : Char) :
    P o (Parser.quotedDigits committed quote) (Parser.quotedDigits committed quote) := by
  rw [quotedDigits_eq]
  refine h.location_bind o fun c => h.bind (h.readWhile c _) fun _ => h.bind (h.next? c) fun ch => ?_
  rcases ch with _ | ch
  · exact h.ite (h.failAt c _) (h.absent c)
  · exact h.ite (h.pure c _) <| h.ite (h.failAt c _) (h.absent c)

theorem StepRules.bozValue (o : ι) (base : Boz.Base) (digits : List Char) :
    P o (Parser.bozValue (here o) base digits) (Parser.bozValue (here' o) base digits) := by
  refine h.ite (h.failAt o _) ?_
  split
  · exact h.pure o _
  · exact h.failAt o _

theorem StepRules.bozAfterLetter (o : ι) (base : Boz.Base) :
    P o (Parser.bozAfterLetter base) (Parser.bozAfterLetter base) :=
  h.bind (h.next o) fun quote =>
    h.ite (h.location_bind o fun c => h.bind (h.quotedDigits c true quote) fun digits =>
      h.bozValue c base digits) (h.absent o)

theorem StepRules.bozAfterQuote (hstrict : LooksUp P Options.strict) (o : ι) (quote : Char) :
    P o (Parser.bozAfterQuote quote) (Parser.bozAfterQuote quote) := by
  refine h.location_bind o fun c => h.bind (h.quotedDigits c false quote) fun digits =>
    hstrict c _ _ fun m m' hm => ?_
  rw [hm]
  refine h.ite (h.absent c) <| h.bind (h.peek? c) fun ch => ?_
  split
  · exact h.bind (h.next? c) fun _ => h.bozValue c _ digits
  · exact h.absent c

theorem StepRules.boz (hstrict : LooksUp P Options.strict) (o : ι) :
    P o Parser.boz Parser.boz := by
  refine h.bind (h.skipBlanks o) fun _ => h.bind (h.next o) fun c => hstrict o _ _ fun m m' hm => ?_
  rw [hm]
  refine h.ite (h.absent o) ?_
  split
  · exact h.bozAfterLetter o _
  · exact h.ite (h.bozAfterQuote hstrict o c) (h.absent o)

/-! ## Quoted literals -/

theorem StepRules.octalEscape (o : ι) (c : Char) :
    P o (Parser.octalEscape c) (Parser.octalEscape c) :=
  h.bind (h.manyUpTo (h.satisfy o _ _) _) fun _ => h.pure o _

theorem StepRules.hexEscape (o : ι) : P o Parser.hexEscape Parser.hexEscape :=
  h.bind (h.manyUpTo (h.satisfy o _ _) _) fun _ => h.pure o _

theorem StepRules.escape (o : ι) : P o (Parser.escape (here o)) (Parser.escape (here' o)) := by
  refine h.bind (h.next o) fun c => ?_
  split
  · exact h.pure o _
  · exact h.ite (h.pure o _) <| h.ite (h.failAt o _) <| h.ite (h.octalEscape o _) <|
      h.ite (h.hexEscape o) <| h.bind (h.say o _) fun _ => h.pure o _

theorem StepRules.literalChar (hescapes : LooksUp P Options.escapes) (o : ι) :
    P o Parser.literalChar Parser.literalChar :=
  h.location_bind o fun c => h.bind (h.next c) fun _ =>
    h.ite (h.failAt c _) <| hescapes c _ _ fun m m' hm => by
      rw [hm]
      exact h.ite (h.bind (h.escape c) fun _ => h.pure c _) (h.pure c _)

theorem StepRules.literalBody (hchar : ∀ o, P o Parser.literalChar Parser.literalChar) (o : ι)
    (quote : Char) : P o (Parser.literalBody quote) (Parser.literalBody quote) :=
  h.location_bind o fun c => h.closing quote [] (hchar c) (h.optional (h.satisfy c _ _))

theorem StepRules.quotedLiteral (hchar : ∀ o, P o Parser.literalChar Parser.literalChar) (o : ι) :
    P o Parser.quotedLiteral Parser.quotedLiteral := by
  refine h.bind (h.skipBlanks o) fun _ => h.bind (h.peek? o) fun c => ?_
  rcases c with _ | quote
  · exact h.absent o
  · exact h.ite (h.bind (h.next? o) fun _ => h.literalBody hchar o quote) (h.absent o)

/-! ## Grammars -/

theorem StepRules.run (g : Grammar α) (hpart : ∀ part, g.Uses part → Allows P part) (o : ι) :
    P o g.run g.run := by
  induction g generalizing o with
  | satisfy c kind => exact h.satisfy o c kind
  | char c => exact h.satisfy o _ _
  | space => exact h.space o
  | blanks => exact h.skipBlanks o
  | keyword text => exact h.keyword o text
  | boz => exact hpart .boz rfl o
  | quotedLiteral => exact h.quotedLiteral (hpart .quoted rfl) o
  | literalBody quote => exact h.literalBody (hpart .quoted rfl) o quote
  | literalChar => exact hpart .quoted rfl o
  | digitString => exact h.digitString o
  | hollerith => exact h.hollerith o
  | anyChar => exact h.expecting h.next o _
  | endOfInput => exact h.endOfInput o
  | skipPast goal => exact hpart (.search goal) rfl o
  | value a => exact h.pure o a
  | seqRight f g hf hg =>
    exact h.bind (hf (fun part hu => hpart part (.inl hu)) o) fun _ =>
      hg (fun part hu => hpart part (.inr hu)) o
  | seqLeft f g hf hg =>
    exact h.bind (hf (fun part hu => hpart part (.inl hu)) o) fun _ =>
      h.bind (hg (fun part hu => hpart part (.inr hu)) o) fun _ => h.pure o _
  | pair f g hf hg =>
    exact h.bind (hf (fun part hu => hpart part (.inl hu)) o) fun _ =>
      h.bind (hg (fun part hu => hpart part (.inr hu)) o) fun _ => h.pure o _
  | orElse f g hf hg =>
    exact h.orElse (hf (fun part hu => hpart part (.inl hu)) o)
      (hg (fun part hu => hpart part (.inr hu)) o)
  | map f g hg => exact h.map (hg hpart o) f
  | attempt g hg => exact h.attempt (hg hpart o)
  | optional g hg => exact h.optional (hg hpart o)
  | many g hg => exact h.many (hg hpart o)
  | many1 g hg => exact h.many1 (hg hpart) o
  | skipMany g hg => exact h.foldMany _ _ (hg hpart o)
  | lookahead g hg => exact h.lookahead (hg hpart o)
  | notFollowedBy g hg => exact h.notFollowedBy (hg hpart o)
  | sepBy1 g sep hg hsep =>
    exact h.sepBy1 (hg (fun part hu => hpart part (.inl hu)) o)
      (hsep (fun part hu => hpart part (.inr hu)) o)
  | report kind => exact h.report o kind
  | consumeThenFail n kind => exact h.consumeThenFail o n kind

omit h in
theorem Rules.literalChar (h : Rules here here' P) (o : ι) :
    P o Parser.literalChar Parser.literalChar :=
  h.toStepRules.literalChar (h.looksUp _) o

omit h in
theorem Rules.run (h : Rules here here' P) (g : Grammar α)
    (hsearch : ∀ goal, g.Uses (.search goal) → ∀ o, P o (skipPast goal) (skipPast goal)) (o : ι) :
    P o g.run g.run := by
  refine h.toStepRules.run g (fun part hu => ?_) o
  cases part with
  | search goal => exact hsearch goal hu
  | boz => exact h.boz (h.looksUp _)
  | quoted => exact h.literalChar

end Parser

end FortranTokens
