import Mathlib.Data.List.TakeWhile
import FortranTokens.Proofs.GoingBack

/-!
# Steps on the unread text

A literal is recognised by what stands in the unread text, so its theory needs the steps of a parser
as equations on that text.  `State.advance n` is the state `n` characters further on with the same
messages; every step here ends in such a state or stays, and what it gives is a piece of the unread
text.
-/

namespace FortranTokens

/-! ## States further on -/

namespace State

/-- The state `n` characters further on, or at the end of the source if it comes first. -/
def advance (n : Nat) (s : State) : State := { s with cursor := s.cursor.advance n }

/-- The state with further messages. -/
def report (ms : List Message) (s : State) : State := { s with log := s.log ++ ms }

@[simp] theorem rest_advance (n : Nat) (s : State) : (s.advance n).rest = s.rest.drop n :=
  Cursor.rest_advance n s.cursor

@[simp] theorem log_advance (n : Nat) (s : State) : (s.advance n).log = s.log := rfl

@[simp] theorem options_advance (n : Nat) (s : State) : (s.advance n).options = s.options := rfl

@[simp] theorem advance_zero (s : State) : s.advance 0 = s := rfl

@[simp] theorem advance_advance (m n : Nat) (s : State) :
    (s.advance m).advance n = s.advance (m + n) := by
  unfold advance
  rw [Cursor.advance_advance]

theorem location_advance (n : Nat) (s : State) :
    (s.advance n).location = s.location + Text.byteSize (s.rest.take n) :=
  Cursor.offset_advance n s.cursor

theorem location_le_advance (n : Nat) (s : State) : s.location ≤ (s.advance n).location := by
  rw [location_advance]
  exact Nat.le_add_right _ _

@[simp] theorem rest_report (ms : List Message) (s : State) : (s.report ms).rest = s.rest := rfl

@[simp] theorem log_report (ms : List Message) (s : State) : (s.report ms).log = s.log ++ ms := rfl

@[simp] theorem options_report (ms : List Message) (s : State) :
    (s.report ms).options = s.options := rfl

@[simp] theorem location_report (ms : List Message) (s : State) :
    (s.report ms).location = s.location := rfl

@[simp] theorem report_nil (s : State) : s.report [] = s := by
  unfold report
  rw [List.append_nil]

theorem advance_report (n : Nat) (ms : List Message) (s : State) :
    (s.report ms).advance n = (s.advance n).report ms := rfl

theorem report_report (ms ms' : List Message) (s : State) :
    (s.report ms).report ms' = s.report (ms ++ ms') := by
  unfold report
  rw [List.append_assoc]

/-! ### Reading on -/

variable {s : State} {c : Char} {cs front after : List Char}

theorem rest_advance_of_append (h : s.rest = front ++ after) :
    (s.advance front.length).rest = after := by
  rw [rest_advance, h, List.drop_left]

theorem rest_advance_of_cons (h : s.rest = c :: cs) : (s.advance 1).rest = cs := by
  rw [rest_advance, h]
  rfl

theorem location_advance_of_append (h : s.rest = front ++ after) :
    (s.advance front.length).location = s.location + Text.byteSize front := by
  rw [location_advance, h, List.take_left]

theorem rest_advance_takeWhile (p : Char → Bool) (s : State) :
    (s.advance (s.rest.takeWhile p).length).rest = s.rest.dropWhile p :=
  rest_advance_of_append List.takeWhile_append_dropWhile.symm

theorem location_advance_blanks (s : State) :
    (s.advance (s.rest.takeWhile CharClass.isBlank).length).location =
      s.location + (s.rest.takeWhile CharClass.isBlank).length := by
  have hblanks : ∀ c ∈ s.rest.takeWhile CharClass.isBlank, c.utf8Size = 1 := by
    intro c hc
    have hc : CharClass.isBlank c := List.mem_takeWhile_imp hc
    simp only [CharClass.isBlank, Bool.or_eq_true, beq_iff_eq] at hc
    rcases hc with rfl | rfl <;> rfl
  rw [location_advance_of_append List.takeWhile_append_dropWhile.symm,
    Text.byteSize_eq_length hblanks]

theorem location_advance_of_cons (h : s.rest = c :: cs) :
    (s.advance 1).location = s.location + c.utf8Size := by
  rw [location_advance, h]
  rfl

theorem location_advance_past_blanks (h : s.rest.dropWhile CharClass.isBlank = c :: cs)
    (hc : c.utf8Size = 1) :
    (s.advance ((s.rest.takeWhile CharClass.isBlank).length + 1)).location =
      s.location + (s.rest.takeWhile CharClass.isBlank).length + 1 := by
  have hrest := (rest_advance_takeWhile CharClass.isBlank s).trans h
  rw [← advance_advance, location_advance_of_cons hrest, location_advance_blanks, hc]

theorem rest_advance_past_head {p : Char → Bool} (h : s.rest.dropWhile p = c :: cs) :
    (s.advance ((s.rest.takeWhile p).length + 1)).rest = cs := by
  rw [← advance_advance]
  exact rest_advance_of_cons ((rest_advance_takeWhile p s).trans h)

theorem next_of_cons (h : s.rest = c :: cs) : s.next = (some c, s.advance 1) := by
  unfold next
  rw [Cursor.bump_of_cons h]
  rfl

theorem next_of_nil (h : s.rest = []) : s.next = (none, s) := by
  unfold next
  rw [Cursor.bump_eq_none_iff.2 h]

theorem skipWhile_apply (p : Char → Bool) (s : State) :
    s.skipWhile p =
      ((s.rest.takeWhile p).length, s.advance (s.rest.takeWhile p).length) := by
  unfold skipWhile
  rw [Cursor.eatWhile_apply]
  rfl

theorem skipBlanks_apply (s : State) :
    s.skipBlanks =
      ((s.rest.takeWhile CharClass.isBlank).length,
        s.advance (s.rest.takeWhile CharClass.isBlank).length) :=
  s.skipWhile_apply CharClass.isBlank

/-- Past a blank the count goes on as if it began there. -/
theorem skipBlanks_of_blank (h : s.rest = c :: cs) (hc : CharClass.isBlank c) :
    s.skipBlanks = ((s.advance 1).skipBlanks.1 + 1, (s.advance 1).skipBlanks.2) := by
  unfold skipBlanks Cursor.eatBlanks
  rw [Cursor.eatWhile_of_bump (Cursor.bump_of_cons h) hc]
  rfl

theorem skipBlanks_of_not_blank (h : ∀ c ∈ s.rest.head?, ¬CharClass.isBlank c) :
    s.skipBlanks = (0, s) := by
  unfold skipBlanks Cursor.eatBlanks
  rw [Cursor.eatWhile_of_not_head h]

theorem atEnd_iff (s : State) : s.atEnd ↔ s.rest = [] := by
  show decide (s.cursor.size ≤ s.cursor.pos) = true ↔ s.cursor.rest = []
  rw [decide_eq_true_iff, UInt32.le_iff_toNat_le, s.cursor.size_eq, s.cursor.pos_eq]
  rcases s.cursor.rest with _ | ⟨c, cs⟩
  · simp
  · have hpos := c.utf8Size_pos
    simp only [Text.byteSize_cons, reduceCtorEq, iff_false]
    omega

end State

/-! ## Parsers on the unread text -/

namespace Parser

variable {α β γ : Type} {s t : State} {c : Char} {cs : List Char}

/-! ### One parser after another -/

theorem bind_assoc (p : Parser α) (f : α → Parser β) (g : β → Parser γ) :
    ((p >>= f) >>= g) = p >>= fun a => f a >>= g := by
  funext s
  rw [bind_apply, bind_apply, bind_apply]
  rcases p s with ⟨a | _ | e, t⟩ <;> rfl

theorem bind_of_present {p : Parser α} {a : α} (h : p s = (.present a, t)) (f : α → Parser β) :
    (p >>= f) s = f a t := by
  rw [bind_apply, h]

theorem bind_of_absent {p : Parser α} (h : p s = (.absent, t)) (f : α → Parser β) :
    (p >>= f) s = (.absent, t) := by
  rw [bind_apply, h]

theorem bind_eq_present_iff {p : Parser α} {f : α → Parser β} {b : β} :
    (p >>= f) s = (.present b, t) ↔ ∃ a u, p s = (.present a, u) ∧ f a u = (.present b, t) := by
  rw [bind_apply]
  rcases p s with ⟨a | _ | e, u⟩ <;> simp [and_assoc]

theorem bind_eq_present_congr {p q : Parser α} {f g : α → Parser β} {b : β}
    (hp : ∀ a u, p s = (.present a, u) ↔ q s = (.present a, u))
    (hf : ∀ a u, f a u = (.present b, t) ↔ g a u = (.present b, t)) :
    (p >>= f) s = (.present b, t) ↔ (q >>= g) s = (.present b, t) := by
  rw [bind_eq_present_iff, bind_eq_present_iff]
  simp only [hp, hf]

theorem map_eq_present_iff {p : Parser α} {f : α → β} {b : β} :
    (f <$> p) s = (.present b, t) ↔ ∃ a, p s = (.present a, t) ∧ f a = b := by
  rw [map_apply]
  rcases p s with ⟨a | _ | e, u⟩
  · show (Reply.present (f a), u) = _ ↔ _
    simp only [Prod.mk.injEq, Reply.present.injEq]
    constructor
    · rintro ⟨hb, hu⟩
      exact ⟨a, ⟨rfl, hu⟩, hb⟩
    · rintro ⟨a, ⟨rfl, hu⟩, hb⟩
      exact ⟨hb, hu⟩
  · simp [Reply.map]
  · simp [Reply.map]

theorem location_bind (f : Nat → Parser β) (s : State) : (location >>= f) s = f s.location s := rfl

theorem options_bind (f : Options → Parser β) (s : State) : (options >>= f) s = f s.options s := rfl

theorem peek?_bind (f : Option Char → Parser β) (s : State) :
    (peek? >>= f) s = f s.rest.head? s := rfl

@[simp] theorem absent_apply (s : State) : (absent : Parser α) s = (.absent, s) := rfl

@[simp] theorem failAt_apply (n : Nat) (k : Kind) (s : State) :
    (failAt n k : Parser α) s = (.absent, s.report [.ofOffset n k]) := rfl

theorem orSay_of_absent {p : Parser α} (n : Nat) (k : Kind) (h : p s = (.absent, t)) :
    orSay n k p s = (.absent, t.report [.ofOffset n k]) := by
  unfold orSay
  rw [h]
  rfl

theorem orSay_eq_present_iff {p : Parser α} {n : Nat} {k : Kind} {a : α} :
    orSay n k p s = (.present a, t) ↔ p s = (.present a, t) := by
  unfold orSay
  rcases p s with ⟨b | _ | e, u⟩ <;> simp

/-! ### One character -/

theorem next?_of_cons (h : s.rest = c :: cs) : next? s = (.present (some c), s.advance 1) := by
  unfold next?
  rw [State.next_of_cons h]

theorem next?_of_nil (h : s.rest = []) : next? s = (.present none, s) := by
  unfold next?
  rw [State.next_of_nil h]

theorem next_of_cons (h : s.rest = c :: cs) : next s = (.present c, s.advance 1) :=
  bind_of_present (next?_of_cons h) _

theorem next_of_nil (h : s.rest = []) : next s = (.absent, s) :=
  bind_of_present (next?_of_nil h) _

theorem next_eq_present_iff :
    next s = (.present c, t) ↔ (∃ cs, s.rest = c :: cs) ∧ t = s.advance 1 := by
  rcases hs : s.rest with _ | ⟨d, cs⟩
  · simp [next_of_nil hs]
  · simp [next_of_cons hs, eq_comm]

theorem satisfy_of_head {p : Char → Bool} (k : Kind) (h : s.rest = c :: cs) (hc : p c) :
    satisfy p k s = (.present c, s.advance 1) := by
  unfold satisfy expecting
  rw [location_bind, orSay_eq_present_iff, bind_of_present (next_of_cons h), if_pos hc]
  rfl

theorem satisfy_of_not_head {p : Char → Bool} (k : Kind) (h : ∀ d ∈ s.rest.head?, ¬p d) :
    ∃ t, satisfy p k s = (.absent, t) := by
  unfold satisfy expecting
  rw [location_bind]
  rcases hs : s.rest with _ | ⟨d, ds⟩
  · exact ⟨_, orSay_of_absent _ _ (bind_of_absent (next_of_nil hs) _)⟩
  · have hd : ¬p d := h d (by rw [hs]; rfl)
    refine ⟨_, orSay_of_absent _ _ (t := s.advance 1) ?_⟩
    rw [bind_of_present (next_of_cons hs), if_neg hd]
    rfl

theorem attempt_satisfy_of_head {p : Char → Bool} (k : Kind) (h : s.rest = c :: cs) (hc : p c) :
    attempt (satisfy p k) s = (.present c, s.advance 1) :=
  attempt_of_present (satisfy_of_head k h hc)

/-- The attempt takes back what was read and reported. -/
theorem attempt_satisfy_of_not_head {p : Char → Bool} (k : Kind)
    (h : ∀ d ∈ s.rest.head?, ¬p d) : attempt (satisfy p k) s = (.absent, s) := by
  obtain ⟨t, ht⟩ := satisfy_of_not_head k h
  exact (framed_satisfy p k).attempt_of_absent ht

theorem optional_satisfy_of_head {p : Char → Bool} (k : Kind) (h : s.rest = c :: cs) (hc : p c) :
    optional (satisfy p k) s = (.present (some c), s.advance 1) := by
  rw [optional_apply, attempt_satisfy_of_head k h hc]

theorem optional_satisfy_of_not_head {p : Char → Bool} (k : Kind)
    (h : ∀ d ∈ s.rest.head?, ¬p d) : optional (satisfy p k) s = (.present none, s) := by
  rw [optional_apply, attempt_satisfy_of_not_head k h]

theorem optional_char_of_head (h : s.rest.head? = some c) :
    optional (char c) s = (.present (some c), s.advance 1) := by
  obtain ⟨cs, hs⟩ := List.head?_eq_some_iff.1 h
  exact optional_satisfy_of_head _ hs (beq_self_eq_true c)

theorem optional_char_of_not_head (h : s.rest.head? ≠ some c) :
    optional (char c) s = (.present none, s) :=
  optional_satisfy_of_not_head _ fun _ hd heq => h (eq_of_beq heq ▸ hd)

/-! ### Stretches of characters -/

/-- A stretch that is followed by another character ends just before it. -/
theorem span_of_append {p : Char → Bool} {text front back : List Char}
    (h : text = front ++ c :: back) (hfront : ∀ d ∈ front, p d) (hc : ¬p c) :
    text.takeWhile p = front ∧ text.dropWhile p = c :: back := by
  rw [h, List.takeWhile_append_of_pos hfront, List.dropWhile_append_of_pos hfront]
  simp [hc]

/-- A stretch whose next character, if there is one, does not belong to it. -/
theorem takeWhile_append_of_maximal {p : Char → Bool} {front back : List Char}
    (hfront : ∀ d ∈ front, p d) (hback : ∀ d ∈ back.head?, ¬p d) :
    (front ++ back).takeWhile p = front ∧ (front ++ back).dropWhile p = back := by
  rcases back with _ | ⟨c, cs⟩
  · rw [List.append_nil, List.takeWhile_eq_self_iff.2 hfront, List.dropWhile_eq_nil_iff.2 hfront]
    exact ⟨rfl, rfl⟩
  · exact span_of_append rfl hfront (hback c rfl)

theorem not_head_dropWhile (p : Char → Bool) (text : List Char) :
    ∀ c ∈ (text.dropWhile p).head?, ¬p c := by
  intro c hc
  have hhead := List.head?_dropWhile_not p text
  rw [Option.mem_def.1 hc] at hhead
  simpa using hhead

/-- Every text begins with a stretch, and another character or the end of the text follows. -/
theorem exists_stretch (p : Char → Bool) (text : List Char) :
    ∃ front, (∀ d ∈ front, p d) ∧
      (text = front ∨ ∃ c back, text = front ++ c :: back ∧ ¬p c) := by
  have htext : text = text.takeWhile p ++ text.dropWhile p := List.takeWhile_append_dropWhile.symm
  have hhead := not_head_dropWhile p text
  refine ⟨text.takeWhile p, fun d hd => List.mem_takeWhile_imp hd, ?_⟩
  rcases hdrop : text.dropWhile p with _ | ⟨c, back⟩ <;> rw [hdrop] at htext hhead
  · exact .inl (by rwa [List.append_nil] at htext)
  · exact .inr ⟨c, back, htext, hhead c rfl⟩

/-- Where no blank stands, none is skipped. -/
theorem no_blanks (h : ∀ c ∈ s.rest.head?, ¬CharClass.isBlank c) :
    s.rest.takeWhile CharClass.isBlank = [] ∧ s.rest.dropWhile CharClass.isBlank = s.rest :=
  takeWhile_append_of_maximal (List.forall_mem_nil _) h

theorem not_blank_after_blanks (s : State) :
    ∀ c ∈ (s.advance (s.rest.takeWhile CharClass.isBlank).length).rest.head?,
      ¬CharClass.isBlank c := by
  rw [State.rest_advance_takeWhile]
  exact not_head_dropWhile CharClass.isBlank s.rest

theorem skipBlanks_apply (s : State) :
    skipBlanks s = (.present (), s.advance (s.rest.takeWhile CharClass.isBlank).length) := by
  unfold skipBlanks
  rw [State.skipBlanks_apply]

theorem readWhile_apply (p : Char → Bool) (s : State) :
    readWhile p s = (.present (s.rest.takeWhile p), s.advance (s.rest.takeWhile p).length) := by
  unfold readWhile
  rw [State.skipWhile_apply]

theorem readWhile_of_maximal {p : Char → Bool} {front after : List Char}
    (h : s.rest = front ++ after) (hfront : ∀ d ∈ front, p d) (hafter : ∀ d ∈ after.head?, ¬p d) :
    readWhile p s = (.present front, s.advance front.length) := by
  rw [readWhile_apply, h, (takeWhile_append_of_maximal hfront hafter).1]

theorem skipPast_apply (goal : UInt8) (s : State) :
    skipPast goal s =
      if goal < 128 then
        match Text.findByte? goal s.rest with
        | some i => (.present (), s.advance (Text.charsWithin (i + 1) s.rest))
        | none => (.absent, s.advance s.rest.length)
      else (.fault .goalNotAscii, s) := by
  unfold skipPast State.skipPast Cursor.eatPast State.rest
  by_cases hgoal : goal < 128
  · rw [if_pos hgoal, if_pos hgoal]
    rcases Text.findByte? goal s.cursor.rest with _ | i
    · rfl
    · rfl
  · rw [if_neg hgoal, if_neg hgoal]

theorem endOfInput_apply (s : State) :
    endOfInput s = (if s.rest = [] then .present () else .absent, s) := by
  unfold endOfInput
  simp only [State.atEnd_iff]

theorem textFrom_advance (n : Nat) (s : State) :
    textFrom s.location (s.advance n) =
      (.present (String.ofList (s.rest.take n)), s.advance n) := by
  have htext : (s.advance n).textFrom s.location = .ok (String.ofList (s.rest.take n)) :=
    Cursor.sliceFrom_offset (Cursor.past_advance n s.cursor)
  unfold textFrom
  rw [htext]

theorem manyUpTo_of_some {p : Parser α} {a : α} (n : Nat)
    (h : optional p s = (.present (some a), t)) :
    manyUpTo (n + 1) p s = (manyUpTo n p >>= fun as => pure (a :: as)) t :=
  bind_of_present h _

theorem manyUpTo_of_none {p : Parser α} (n : Nat) (h : optional p s = (.present none, t)) :
    manyUpTo (n + 1) p s = (.present [], t) :=
  bind_of_present h _

/-- Characters that satisfy `p`, as many as there are but no more than `n`. -/
theorem manyUpTo_satisfy (p : Char → Bool) (k : Kind) : ∀ (n : Nat) (s : State),
    manyUpTo n (satisfy p k) s =
      (.present ((s.rest.take n).takeWhile p), s.advance ((s.rest.take n).takeWhile p).length)
  | 0, s => by simp [manyUpTo]
  | n + 1, s => by
    rcases hs : s.rest with _ | ⟨c, cs⟩
    · have hnone := optional_satisfy_of_not_head (p := p) k (s := s) (by simp [hs])
      rw [manyUpTo_of_none n hnone]
      rfl
    · by_cases hc : p c
      · rw [manyUpTo_of_some n (optional_satisfy_of_head k hs hc),
          bind_of_present (manyUpTo_satisfy p k n _)]
        simp [hs, hc, Nat.add_comm]
      · have hnone := optional_satisfy_of_not_head (p := p) k (s := s) (by simpa [hs] using hc)
        rw [manyUpTo_of_none n hnone]
        simp [hc]

/-! ### Parsers that report nothing -/

/-- The parser only reads on: it reports nothing and cannot fault. -/
def Quiet (p : Parser α) : Prop :=
  ∀ s, ∃ n, p s = (.absent, s.advance n) ∨ ∃ a, p s = (.present a, s.advance n)

theorem quiet_pure (a : α) : Quiet (pure a) := fun _ => ⟨0, .inr ⟨a, rfl⟩⟩

theorem quiet_absent : Quiet (absent : Parser α) := fun _ => ⟨0, .inl rfl⟩

theorem quiet_skipBlanks : Quiet skipBlanks := fun s => ⟨_, .inr ⟨(), skipBlanks_apply s⟩⟩

theorem quiet_next : Quiet next := fun s => by
  rcases hs : s.rest with _ | ⟨c, cs⟩
  · exact ⟨0, .inl (next_of_nil hs)⟩
  · exact ⟨1, .inr ⟨c, next_of_cons hs⟩⟩

theorem Quiet.bind {p : Parser α} {f : α → Parser β} (hp : Quiet p) (hf : ∀ a, Quiet (f a)) :
    Quiet (p >>= f) := fun s => by
  obtain ⟨m, hs | ⟨a, hs⟩⟩ := hp s
  · exact ⟨m, .inl (bind_of_absent hs f)⟩
  · obtain ⟨n, ht⟩ := hf a (s.advance m)
    rw [State.advance_advance] at ht
    rw [bind_of_present hs]
    exact ⟨m + n, ht⟩

theorem Quiet.ite {c : Prop} [Decidable c] {p q : Parser α} (hp : Quiet p) (hq : Quiet q) :
    Quiet (if c then p else q) := by
  split
  · exact hp
  · exact hq

end Parser

end FortranTokens
